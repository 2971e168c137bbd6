import SqlSyntax.Proofs.Lexeme.Choice
import SqlSyntax.Proofs.Lexeme.Filter
import SqlSyntax.Proofs.Text.Characters
import SqlSyntax.Proofs.Text.Lines
import SqlSyntax.Text.Quoted

/-!
# Names as they are read

Three rules make names: one for bare words, one for names in quotes, and one for names
with Unicode escapes, whose text is known only when the escapes are resolved.  What the
text of such a token stands for is its whole name, of which a dialect keeps so much as
it has room for.  All other rules make no names and note nothing about them.

## Main definitions

* `IsLongestWithin limit name kept` — the longest part of a name that fits.
* `WholeName after rest text whole` — the name that a token stands for.
* `Note.isCut`, `cutNotes` — the notes on names that were cut.
* `Reading.Naming` — what a rule makes of the names at the start of a text.

## Main results

* `isLongestWithin_limitName`, `limitName_notes` — what is kept of a name.
* `exists_of_quoted` — a text in quotes is its body, doubled.
* `naming_readToken` — **only the three rules make names, and they cut them.**
-/

namespace SqlSyntax

variable {d : Dialect} {start : Nat} {c : Char} {cs : List Char}

/-! ### Cutting a name -/

/-- The longest beginning of a name that takes at most `limit` bytes. -/
structure IsLongestWithin (limit : Nat) (name kept : List Char) : Prop where
  isPrefix : kept <+: name
  fits : byteLength kept ≤ limit
  longest : ∀ p, p <+: name → byteLength p ≤ limit → byteLength p ≤ byteLength kept

/-- What is kept of a name is the longest part of it that fits, if it is cut or not. -/
theorem isLongestWithin_limitName (d : Dialect) (start : Nat) (name : List Char) :
    IsLongestWithin d.maxNameLength name (limitName d start name).1.toList := by
  have hcut : (limitName d start name).1.toList = takeBytes d.maxNameLength name := by
    unfold limitName
    dsimp only
    split
    · next hfits =>
      have hall := takeBytes_byteLength_append name []
      rw [List.append_nil] at hall
      rw [← takeBytes_min, Nat.min_eq_right hfits, hall, String.toList_ofList]
    · rw [String.toList_ofList]
  rw [hcut]
  exact ⟨takeBytes_isPrefix _ _, byteLength_takeBytes_le _ _, fun p => byteLength_le_of_prefix⟩

/-- A name is noted if it is longer than what is kept. -/
theorem limitName_notes (d : Dialect) (start : Nat) (name : List Char) :
    (limitName d start name).2 = if d.maxNameLength < byteLength name then
      [⟨.nameCut (String.ofList name) (limitName d start name).1, start⟩] else [] := by
  unfold limitName
  dsimp only
  by_cases hfits : byteLength name ≤ d.maxNameLength
  · rw [if_pos hfits, if_neg (Nat.not_lt.mpr hfits)]
  · rw [if_neg hfits, if_pos (Nat.not_le.mp hfits)]

/-! ### Notes on names -/

/-- Whether a note says that a name was cut. -/
def Note.isCut (n : Note) : Bool :=
  match n.problem with
  | .nameCut _ _ => true
  | _ => false

/-- The notes on names that were cut. -/
def cutNotes (ns : List Note) : List Note :=
  ns.filter Note.isCut

@[simp] theorem cutNotes_append (a b : List Note) : cutNotes (a ++ b) = cutNotes a ++ cutNotes b :=
  List.filter_append ..

theorem cutNotes_limitName (d : Dialect) (start : Nat) (name : List Char) :
    cutNotes (limitName d start name).2 = (limitName d start name).2 := by
  rw [limitName_notes]
  split <;> rfl

@[simp] theorem cutNotes_faultNotes (start : Nat) (fs : List Escape.Fault) :
    cutNotes (faultNotes start fs) = [] := by
  refine List.filter_eq_nil_iff.mpr fun n hn => ?_
  obtain ⟨f, -, rfl⟩ := List.mem_map.mp hn
  exact Bool.false_ne_true

theorem cutNotes_emptyName (p : Prop) [Decidable p] (start : Nat) :
    cutNotes (if p then [⟨.emptyName, start⟩] else []) = [] := by
  split <;> rfl

/-! ### Texts of names -/

/-- The whole name that the characters `text` of a token stand for, before the text `rest`
and the raw tokens `after`: a bare word that is no keyword, in lower case; what stands
between quotes, where a quote is written twice; or the same with Unicode escapes, of
which a clause behind the token may name the escape character. -/
inductive WholeName (after : List Token) (rest : List Char) : List Char → List Char → Prop
  | word {c : Char} {cs : List Char} (start : isNameStart c = true)
    (part : ∀ x ∈ c :: cs, isNamePart x = true) (ends : ∀ x ∈ rest.head?, isNamePart x = false)
    (free : Keyword.lookup (c :: cs) = none) : WholeName after rest (c :: cs) (lowerCase (c :: cs))
  | quoted {name : List Char} (ends : rest.head? ≠ some '"') :
    WholeName after rest ('"' :: (Quoted.double '"' name ++ ['"'])) name
  | escaped {u : Char} {body : List Char} (letter : u = 'u' ∨ u = 'U')
    (ends : rest.head? ≠ some '"') :
    WholeName after rest (u :: '&' :: '"' :: (Quoted.double '"' body ++ ['"']))
      (Escape.decodeUnicode (escapeBefore after) body).text

/-- **A text in quotes is its body**, with every quote in it written twice, and no further
quote stands behind it. -/
theorem exists_of_quoted {q : Char} {body : List Char} {n : Nat}
    (h : quoted q cs = some (body, n)) :
    ∃ rest, cs = (Quoted.double q body ++ [q]) ++ rest ∧
      n = (Quoted.double q body ++ [q]).length ∧ rest.head? ≠ some q := by
  fun_induction quoted q cs generalizing body n with
  | case1 => cases h
  | case2 =>
    -- the text ends with the quote
    cases h
    exact ⟨[], rfl, rfl, (Option.some_ne_none q).symm⟩
  | case3 cs ih =>
    -- a quote written twice
    obtain ⟨⟨body', n'⟩, hr, heq⟩ := Option.map_eq_some_iff.mp h
    cases heq
    obtain ⟨rest, rfl, rfl, hrest⟩ := ih hr
    exact ⟨rest, by simp, by simp, hrest⟩
  | case4 c cs hc =>
    cases h
    exact ⟨c :: cs, rfl, rfl, fun heq => hc (Option.some.inj heq)⟩
  | case5 c cs hc ih =>
    obtain ⟨⟨body', n'⟩, hr, heq⟩ := Option.map_eq_some_iff.mp h
    cases heq
    obtain ⟨rest, rfl, rfl, hrest⟩ := ih hr
    exact ⟨rest, by simp [hc], by simp [hc], hrest⟩

theorem isNamePart_of_isNameStart (h : isNameStart c = true) : isNamePart c = true := by
  rw [isNamePart, h, Bool.true_or, Bool.true_or]

theorem eq_of_isLetter_u (h : isLetter 'u' c = true) : c = 'u' ∨ c = 'U' := by
  by_cases hc : c.toNat < 128
  · exact forall_ascii (P := fun c => isLetter 'u' c = true → c = 'u' ∨ c = 'U') (by decide) hc h
  · -- only letters from A to Z have another lower case
    have hupper : ¬ (c.val ≥ 'A'.val ∧ c.val ≤ 'Z'.val) :=
      fun hle => hc (Nat.lt_of_le_of_lt hle.2 (by decide))
    have hlower : c.toLower = c := dif_neg hupper
    rw [isLetter, beq_iff_eq, hlower] at h
    exact .inl h

/-! ### Rules that make no names -/

/-- Whether a token is a name, perhaps with escapes to be resolved. -/
def TokenKind.isNaming : TokenKind → Bool
  | .name _ | .escapedName _ => true
  | _ => false

/-- A rule makes no name and cuts none. -/
structure Reading.IsNameless (r : Reading) : Prop where
  kind : r.kind.isNaming = false
  notes : cutNotes r.notes = []

theorem isNameless_unfinished {problem : LexicalProblem} {notes : List Note}
    (hproblem : (Note.mk problem start).isCut = false) (hnotes : cutNotes notes = []) :
    (unfinished start problem cs notes).IsNameless := by
  refine ⟨rfl, ?_⟩
  rw [unfinished, cutNotes_append, hnotes, cutNotes, List.filter_singleton, hproblem]
  rfl

theorem isNameless_readPlainString {intro : Nat} : (readPlainString start intro cs).IsNameless := by
  unfold readPlainString
  split
  · exact isNameless_unfinished rfl rfl
  · exact ⟨rfl, rfl⟩

theorem isNameless_readEscapeString {warn : Bool} {intro : Nat} :
    (readEscapeString warn start intro cs).IsNameless := by
  have hwarning (p : Prop) [Decidable p] (offset : Nat) :
      cutNotes (if p then [⟨.plainEscape, offset⟩] else []) = [] := by
    split <;> rfl
  unfold readEscapeString
  dsimp only
  split
  · exact ⟨rfl, by rw [cutNotes_append, hwarning, cutNotes_faultNotes, List.append_nil]⟩
  · exact isNameless_unfinished rfl
      (by rw [cutNotes_append, hwarning, cutNotes_faultNotes, List.append_nil])

theorem isNameless_readString : (readString d start cs).IsNameless := by
  unfold readString
  split
  · exact isNameless_readPlainString
  · exact isNameless_readEscapeString

theorem cutNotes_digitNotes {radix : Nat} {problem : Char → LexicalProblem}
    (hproblem : ∀ c, (Note.mk (problem c) start).isCut = false) (body : List Char) :
    cutNotes (digitNotes start radix problem body) = [] := by
  unfold digitNotes
  cases body.find? _ with
  | none => rfl
  | some c => rw [Option.elim_some, cutNotes, List.filter_singleton, hproblem]; rfl

theorem isNameless_readBinary : (readBinary start cs).IsNameless := by
  unfold readBinary
  split
  · exact isNameless_unfinished rfl rfl
  · exact ⟨rfl, cutNotes_digitNotes (fun _ => rfl) _⟩

theorem isNameless_readHex : (readHex start cs).IsNameless := by
  unfold readHex
  split
  · exact isNameless_unfinished rfl rfl
  · exact ⟨rfl, cutNotes_digitNotes (fun _ => rfl) _⟩

theorem isNameless_readEscapedString : (readEscapedString d start cs).IsNameless := by
  unfold readEscapedString
  split
  · exact isNameless_unfinished rfl rfl
  · refine ⟨rfl, ?_⟩
    dsimp only
    split <;> rfl

theorem isNameless_readDollar : (readDollar start cs).IsNameless := by
  have hjunk (p : Prop) [Decidable p] (text : String) :
      cutNotes (if p then [] else [⟨.junkAfterParam text, start⟩]) = [] := by
    split <;> rfl
  unfold readDollar
  split
  · unfold readParam
    dsimp only
    split
    · exact ⟨rfl, hjunk _ _⟩
    · exact ⟨rfl, hjunk _ _⟩
  · split
    · exact ⟨rfl, rfl⟩
    · dsimp only
      split
      · exact isNameless_unfinished rfl rfl
      · exact ⟨rfl, rfl⟩

theorem isNameless_readNumber : (readNumber start cs).IsNameless := by
  unfold readNumber
  dsimp only
  constructor
  · dsimp only
    split
    · rfl
    · split <;> rfl
  · dsimp only
    split <;> rfl

theorem isNameless_readOperator : (readOperator cs).IsNameless := by
  refine ⟨?_, rfl⟩
  show (operatorKind _).isNaming = false
  unfold operatorKind
  split <;> rfl

theorem isNameless_symbol : Reading.IsNameless ⟨symbolKind c, 1, []⟩ := by
  refine ⟨?_, rfl⟩
  show (symbolKind c).isNaming = false
  unfold symbolKind
  repeat' split
  all_goals rfl

/-! ### Rules that make names -/

/-- What a rule makes of the names at the start of a text: no name; a name, cut to what is
kept of the whole name; or a name whose escapes are not resolved, which is not cut yet. -/
inductive Reading.Naming (d : Dialect) (start : Nat) (cs : List Char) : Reading → Prop
  | nameless {r : Reading} (h : r.IsNameless) : Naming d start cs r
  | name {r : Reading} {text rest whole : List Char} (hcs : cs = text ++ rest)
    (taken : r.taken = text.length) (spelled : ∀ after, WholeName after rest text whole)
    (kind : r.kind = .name (limitName d start whole).1)
    (notes : cutNotes r.notes = (limitName d start whole).2) : Naming d start cs r
  | escaped {r : Reading} {text rest body : List Char} (hcs : cs = text ++ rest)
    (taken : r.taken = text.length)
    (spelled : ∀ after, WholeName after rest text
      (Escape.decodeUnicode (escapeBefore after) body).text)
    (kind : r.kind = .escapedName (String.ofList body)) (notes : cutNotes r.notes = []) :
    Naming d start cs r

theorem naming_readWord (hc : isNameStart c = true) :
    (readWord d start (c :: cs)).Naming d start (c :: cs) := by
  have hword : (c :: cs).takeWhile isNamePart = c :: cs.takeWhile isNamePart :=
    List.takeWhile_cons_of_pos (isNamePart_of_isNameStart hc)
  unfold readWord
  dsimp only
  split
  · exact .nameless ⟨rfl, rfl⟩
  · next hfree =>
    refine .name (List.takeWhile_append_dropWhile ..).symm rfl (fun after => ?_) rfl
      (cutNotes_limitName ..)
    have hpart : ∀ x ∈ (c :: cs).takeWhile isNamePart, isNamePart x = true :=
      fun x hx => List.mem_takeWhile_imp hx
    have hends : ∀ x ∈ ((c :: cs).dropWhile isNamePart).head?, isNamePart x = false := by
      intro x hx
      have hnot := List.head?_dropWhile_not isNamePart (c :: cs)
      rw [Option.mem_def.mp hx] at hnot
      exact hnot
    rw [hword] at hfree hpart ⊢
    exact .word hc hpart hends hfree

theorem naming_readQuotedName : (readQuotedName d start ('"' :: cs)).Naming d start ('"' :: cs) := by
  unfold readQuotedName
  split
  · exact .nameless (isNameless_unfinished rfl rfl)
  · next body n hbody =>
    obtain ⟨rest, hcs, rfl, hrest⟩ := exists_of_quoted hbody
    obtain rfl : cs = _ := hcs
    have htext : '"' :: (Quoted.double '"' body ++ ['"'] ++ rest)
        = '"' :: (Quoted.double '"' body ++ ['"']) ++ rest := rfl
    refine .name htext rfl (fun after => .quoted hrest) rfl ?_
    rw [cutNotes_append, cutNotes_emptyName, cutNotes_limitName, List.nil_append]

theorem naming_readEscapedName (hc : c = 'u' ∨ c = 'U') :
    (readEscapedName start (c :: '&' :: '"' :: cs)).Naming d start (c :: '&' :: '"' :: cs) := by
  unfold readEscapedName
  split
  · exact .nameless (isNameless_unfinished rfl rfl)
  · next body n hbody =>
    obtain ⟨rest, hcs, rfl, hrest⟩ := exists_of_quoted hbody
    obtain rfl : cs = _ := hcs
    have htext : c :: '&' :: '"' :: (Quoted.double '"' body ++ ['"'] ++ rest)
        = c :: '&' :: '"' :: (Quoted.double '"' body ++ ['"']) ++ rest := rfl
    exact .escaped htext rfl (fun after => .escaped hc hrest) rfl rfl

/-- **What the rules make of names.** -/
theorem naming_readToken (d : Dialect) (start : Nat) (c : Char) (cs : List Char) :
    (readToken d start c cs).Naming d start (c :: cs) := by
  have hrule := readBy_readToken d start c cs
  generalize readToken d start c cs = r at hrule ⊢
  cases hrule with
  | string => exact .nameless isNameless_readString
  | quotedName hc => exact hc ▸ naming_readQuotedName
  | dollar => exact .nameless isNameless_readDollar
  | escapeString => exact .nameless isNameless_readEscapeString
  | plainString => exact .nameless isNameless_readPlainString
  | binary => exact .nameless isNameless_readBinary
  | hex => exact .nameless isNameless_readHex
  | escapedName hu hnext hquote =>
    obtain ⟨cs, rfl⟩ := List.head?_eq_some_iff.mp hnext
    obtain ⟨cs, rfl⟩ := List.head?_eq_some_iff.mp hquote
    exact naming_readEscapedName (eq_of_isLetter_u hu)
  | escapedString => exact .nameless isNameless_readEscapedString
  | word hc => exact naming_readWord hc
  | number => exact .nameless isNameless_readNumber
  | pair hk =>
    have hpairs : ∀ k ∈ [TokenKind.dotDot, .typecast, .colonEquals], k.isNaming = false := by decide
    exact .nameless ⟨hpairs _ hk, rfl⟩
  | operator => exact .nameless isNameless_readOperator
  | symbol => exact .nameless isNameless_symbol

end SqlSyntax
