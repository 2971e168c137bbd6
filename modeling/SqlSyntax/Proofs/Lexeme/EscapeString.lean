import SqlSyntax.Proofs.Number.Digits
import SqlSyntax.Proofs.Rendering.Literals
import SqlSyntax.Proofs.Text.Escape

/-!
# Spellings of the characters of an escape string

In an escape string a character can be spelled in many ways: as it is, by a letter, by its
bytes, by its code point or by its surrogates.  Every way to spell a text is read as that
text.  A spelling ends where it ends whatever follows it, so the spellings of a text are read
one after the other.

## Main definitions

* `EscapeString.SpellsByte`, `EscapeString.SpellsChar` — the spellings of a byte and of a
  character.
* `EscapeString.SpellsText cs body` — the text `cs` is spelled by `body`.

## Main results

* `EscapeString.reads_spellsChar`, `EscapeString.reads_spellsText` — spellings are read as items
  that stand for what they spell.
* `tokenize_escapeString` — **every spelling of a text is read as the text, in any dialect.**
-/

namespace SqlSyntax

open Escape

namespace EscapeString

variable {radix : Nat} {c e : Char} {b : UInt8} {u : Item} {us : List Item} {w t cs body : List Char}

/-- Control characters with the letters that spell them behind a backslash. -/
def controlLetters : List (Char × Char) :=
  [('\x08', 'b'), ('\x0c', 'f'), ('\n', 'n'), ('\r', 'r'), ('\t', 't'), ('\x0b', 'v')]

/-- The spellings of a byte: two hexadecimal digits or three octal ones. -/
inductive SpellsByte : UInt8 → List Char → Prop
  | hex {b : UInt8} {w : List Char} (hlength : w.length = 2) (h : Writes 16 w b.toNat) :
    SpellsByte b ('\\' :: 'x' :: w)
  | octal {b : UInt8} {w : List Char} (hlength : w.length = 3) (h : Writes 8 w b.toNat) :
    SpellsByte b ('\\' :: w)

/-- The spellings of a character. -/
inductive SpellsChar : Char → List Char → Prop
  /-- The character as it is. -/
  | raw {c : Char} (hquote : c ≠ '\'') (hback : c ≠ '\\') : SpellsChar c [c]
  | doubledQuote : SpellsChar '\'' ['\'', '\'']
  | escapedQuote : SpellsChar '\'' ['\\', '\'']
  | backslash : SpellsChar '\\' ['\\', '\\']
  | control {c l : Char} (h : (c, l) ∈ controlLetters) : SpellsChar c ['\\', l]
  /-- All bytes of the character, each in either way. -/
  | bytes {c : Char} {ws : List (List Char)}
    (h : List.Forall₂ SpellsByte (String.utf8EncodeChar c) ws) : SpellsChar c ws.flatten
  /-- Four hexadecimal digits, which write no code point beyond the basic plane. -/
  | short {c : Char} {w : List Char} (hlength : w.length = 4) (h : Writes 16 w c.toNat) :
    SpellsChar c ('\\' :: 'u' :: w)
  | long {c : Char} {w : List Char} (hlength : w.length = 8) (h : Writes 16 w c.toNat) :
    SpellsChar c ('\\' :: 'U' :: w)
  /-- The surrogates of a character beyond the basic plane. -/
  | pair {c : Char} {v w : List Char} (hc : 0x10000 ≤ c.toNat) (hv : v.length = 4)
    (hw : w.length = 4) (hhigh : Writes 16 v (highHalf c)) (hlow : Writes 16 w (lowHalf c)) :
    SpellsChar c ('\\' :: 'u' :: (v ++ '\\' :: 'u' :: w))

/-- A text is spelled character by character. -/
inductive SpellsText : List Char → List Char → Prop
  | nil : SpellsText [] []
  | cons {c : Char} {w cs body : List Char} (h : SpellsChar c w) (hs : SpellsText cs body) :
    SpellsText (c :: cs) (w ++ body)

/-! ### How a spelling is read -/

/-- The text `w` is read as the items `us` whatever follows it. -/
def Reads (w : List Char) (us : List Item) : Prop :=
  ∀ t, escapeBody 0 (w ++ t) = ⟨us ++ (escapeBody 0 t).items,
    w.length + (escapeBody 0 t).taken, (escapeBody 0 t).closed⟩

theorem reads_nil : Reads [] [] := by
  intro t
  rw [List.nil_append, List.nil_append, List.length_nil, Nat.zero_add]

theorem Reads.append {v : List Char} {us' : List Item} (hv : Reads v us) (hw : Reads w us') :
    Reads (v ++ w) (us ++ us') := by
  intro t
  rw [List.append_assoc, hv, hw, List.append_assoc, List.length_append, Nat.add_assoc]

/-- The characters of an item that was read are passed over. -/
theorem escapeBody_skip (w t : List Char) : escapeBody w.length (w ++ t) =
    ⟨(escapeBody 0 t).items, w.length + (escapeBody 0 t).taken, (escapeBody 0 t).closed⟩ := by
  induction w with
  | nil =>
    rw [List.length_nil, Nat.zero_add]
    rfl
  | cons c w ih =>
    rw [List.length_cons, List.cons_append, escapeBody, ih, EscapeBody.skip, Nat.add_right_comm]

theorem reads_raw (hquote : c ≠ '\'') (hback : c ≠ '\\') : Reads [c] [.char c] := by
  intro t
  rw [List.singleton_append, escapeBody_zero, if_neg hquote, if_neg hback, EscapeBody.cons,
    Nat.add_comm]
  rfl

theorem reads_doubledQuote : Reads ['\'', '\''] [.char '\''] := by
  intro t
  have hskip := escapeBody_skip ['\''] t
  rw [List.length_singleton, List.singleton_append] at hskip
  rw [List.cons_append, List.singleton_append, escapeBody_zero, if_pos rfl, List.head?_cons,
    if_pos rfl, hskip, EscapeBody.cons, EscapeBody.mk.injEq]
  exact ⟨rfl, Nat.add_right_comm 1 _ 1, rfl⟩

/-- An escape whose item takes the letter behind the backslash and the characters `w`. -/
theorem reads_escape (h : ∀ t, backslashItem e (w ++ t) = (u, w.length + 1)) :
    Reads ('\\' :: e :: w) [u] := by
  intro t
  have hskip := escapeBody_skip (e :: w) t
  rw [List.length_cons, List.cons_append] at hskip
  rw [List.cons_append, List.cons_append, escapeBody_zero, if_neg (by decide), if_pos rfl]
  dsimp only
  rw [h t]
  dsimp only
  rw [hskip, EscapeBody.cons, EscapeBody.mk.injEq]
  exact ⟨rfl, Nat.add_right_comm _ _ 1, rfl⟩

/-! ### Digits -/

theorem countDigits_writes {n : Nat} (h : Writes radix w n) (t : List Char) :
    countDigits radix w.length (w ++ t) = w.length := by
  obtain ⟨ds, hds, -⟩ := h
  rw [countDigits, List.take_left, List.takeWhile_eq_self_iff.mpr hds.isDigitOf]

theorem byteItem_writes (h : Writes radix w b.toNat) (t : List Char) :
    byteItem radix w.length (w ++ t) = .byte b := by
  obtain ⟨ds, hds, hvalue⟩ := h
  rw [byteItem, leadingDigits_take hds, valueOfDigits_eq, ← hvalue, UInt8.ofNat_toNat]

/-- Behind `x` stand hexadecimal digits, two at most. -/
theorem backslashItem_hex (h : cs.head?.any (isDigitOf 16) = true) : backslashItem 'x' cs
    = (byteItem 16 (countDigits 16 2 cs) cs, countDigits 16 2 cs + 1) := by
  unfold backslashItem
  rw [if_neg (by decide), if_neg (by decide), if_neg (by decide), if_neg (by decide),
    if_neg (by decide), if_neg (by decide), if_neg (by decide), if_pos ⟨rfl, h⟩]

/-- No letter for a control character is a digit. -/
theorem backslashItem_octal (h : isDigitOf 8 e = true) : backslashItem e cs
    = (byteItem 8 (countDigits 8 3 (e :: cs)) (e :: cs), countDigits 8 3 (e :: cs)) := by
  have hne {x : Char} (hx : isDigitOf 8 x = false) : e ≠ x := by
    rintro rfl
    rw [h] at hx
    cases hx
  unfold backslashItem
  rw [if_neg (hne rfl), if_neg (hne rfl), if_neg (hne rfl), if_neg (hne rfl), if_neg (hne rfl),
    if_neg (hne rfl), if_pos h]

theorem reads_spellsByte (h : SpellsByte b w) : Reads w [.byte b] := by
  cases h with
  | @hex w hlength h =>
    refine reads_escape fun t => ?_
    have hcount := countDigits_writes h t
    have hbyte := byteItem_writes h t
    rw [hlength] at hcount hbyte
    rw [backslashItem_hex (h.any_head? (by omega) t), hcount, hbyte, hlength]
  | @octal w hlength h =>
    cases w with
    | nil => cases hlength
    | cons e w =>
      refine reads_escape fun t => ?_
      have hcount := countDigits_writes h t
      have hbyte := byteItem_writes h t
      rw [hlength, List.cons_append] at hcount hbyte
      rw [backslashItem_octal (h.any_head? (by omega) t), hcount, hbyte, ← hlength]
      rfl

theorem reads_bytes {bs : List UInt8} {ws : List (List Char)} (h : List.Forall₂ SpellsByte bs ws) :
    Reads ws.flatten (bs.map .byte) := by
  induction h with
  | nil => exact reads_nil
  | cons hb _ ih => exact (reads_spellsByte hb).append ih

/-- A code point in four hexadecimal digits. -/
theorem reads_short {n : Nat} (hlength : w.length = 4) (h : Writes 16 w n) :
    Reads ('\\' :: 'u' :: w) [.code n] := by
  refine reads_escape fun t => ?_
  have hread := h.fixedDigits_eq t
  have hitem : backslashItem 'u' (w ++ t)
      = (fixedDigits 16 4 (w ++ t)).elim (.malformed, 1) fun n => (.code n, 5) := rfl
  rw [hlength] at hread ⊢
  rw [hitem, hread]
  rfl

/-- A code point in eight hexadecimal digits. -/
theorem reads_long {n : Nat} (hlength : w.length = 8) (h : Writes 16 w n) :
    Reads ('\\' :: 'U' :: w) [.code n] := by
  refine reads_escape fun t => ?_
  have hread := h.fixedDigits_eq t
  have hitem : backslashItem 'U' (w ++ t)
      = (fixedDigits 16 8 (w ++ t)).elim (.malformed, 1) fun n => (.code n, 9) := rfl
  rw [hlength] at hread ⊢
  rw [hitem, hread]
  rfl

/-- A control character has one byte, which its letter stands for. -/
theorem reads_control {l : Char} (h : (c, l) ∈ controlLetters) :
    Reads ['\\', l] ((String.utf8EncodeChar c).map .byte) := by
  simp only [controlLetters, List.mem_cons, Prod.mk.injEq, List.not_mem_nil, or_false] at h
  rcases h with ⟨rfl, rfl⟩ | ⟨rfl, rfl⟩ | ⟨rfl, rfl⟩ | ⟨rfl, rfl⟩ | ⟨rfl, rfl⟩ | ⟨rfl, rfl⟩ <;>
    exact reads_escape fun _ => rfl

/-! ### Texts -/

/-- A spelling of a character is read as items that stand for it. -/
theorem reads_spellsChar (hc : c ≠ '\x00') (h : SpellsChar c w) :
    ∃ us, StandsFor us c ∧ Reads w us := by
  cases h with
  | raw hquote hback => exact ⟨_, .char c, reads_raw hquote hback⟩
  | doubledQuote => exact ⟨_, .char _, reads_doubledQuote⟩
  | escapedQuote => exact ⟨_, .char _, reads_escape fun _ => rfl⟩
  | backslash => exact ⟨_, .char _, reads_escape fun _ => rfl⟩
  | control h => exact ⟨_, .bytes hc, reads_control h⟩
  | bytes h => exact ⟨_, .bytes hc, reads_bytes h⟩
  | short hlength h => exact ⟨_, .code hc, reads_short hlength h⟩
  | long hlength h => exact ⟨_, .code hc, reads_long hlength h⟩
  | pair hbeyond hv hw hhigh hlow =>
    exact ⟨_, .pair hbeyond, (reads_short hv hhigh).append (reads_short hw hlow)⟩

/-- The spelling of a text is read as items that denote it. -/
theorem reads_spellsText (hzero : '\x00' ∉ cs) (h : SpellsText cs body) :
    ∃ us, Denotes us cs ∧ Reads body us := by
  induction h with
  | nil => exact ⟨[], .nil, reads_nil⟩
  | cons h _ ih =>
    rw [List.mem_cons, not_or] at hzero
    obtain ⟨us, hus, hread⟩ := reads_spellsChar (Ne.symm hzero.1) h
    obtain ⟨us', hus', hread'⟩ := ih hzero.2
    exact ⟨us ++ us', .cons hus hus', hread.append hread'⟩

end EscapeString

/-- **Every spelling of a text is read as the text, in any dialect.**  The literal is the only
token, resolved or raw, it takes the whole text, and nothing is recorded. -/
theorem tokenize_escapeString (d : Dialect) {c : Char} (hc : c = 'E' ∨ c = 'e') {s : String}
    {body : List Char} (hzero : '\x00' ∉ s.toList) (hbody : EscapeString.SpellsText s.toList body) :
    let literal := String.ofList (c :: '\'' :: (body ++ ['\'']))
    (TokenStream.ofText d literal.toList).tokenize = (TokenKind.string s).alone literal ∧
      (TokenStream.ofRaw d literal.toList).tokenize = (TokenKind.string s).alone literal := by
  intro literal
  obtain ⟨us, hus, hread⟩ := EscapeString.reads_spellsText hzero hbody
  have hclosed : escapeBody 0 (body ++ ['\'']) = ⟨us, body.length + 1, true⟩ := by
    have hend : escapeBody 0 ['\''] = ⟨[], 1, true⟩ := rfl
    rw [hread, hend, List.append_nil]
  have htoken := isToken_escapeBody (d := d) hc hclosed (assemble_of_denotes hus)
  rw [String.ofList_toList, ← String.toList_ofList (l := _ :: _)] at htoken
  exact ⟨htoken.tokenize, htoken.tokenize_ofRaw⟩

/-- A quote, a pair of surrogates, control characters, and a character by its two bytes. -/
theorem tokenize_escapeString_mixed :
    let escaping : Dialect := ⟨"escaping", false, true, 63⟩
    let s := "i'😀\n\\é"
    let body := "i''\\uD83D\\uDE00\\n\\\\\\xc3\\251".toList
    let literal := String.ofList ('E' :: '\'' :: (body ++ ['\'']))
    '\x00' ∉ s.toList ∧ EscapeString.SpellsText s.toList body ∧
      (TokenStream.ofText escaping literal.toList).tokenize = (TokenKind.string s).alone literal := by
  intro escaping s body literal
  have hzero : '\x00' ∉ s.toList := by decide
  have hbody : EscapeString.SpellsText ['i', '\'', '😀', '\n', '\\', 'é']
      (['i'] ++ (['\'', '\''] ++ (('\\' :: 'u' :: (['D', '8', '3', 'D'] ++
        '\\' :: 'u' :: ['D', 'E', '0', '0'])) ++ (['\\', 'n'] ++ (['\\', '\\'] ++
        ([['\\', 'x', 'c', '3'], ['\\', '2', '5', '1']].flatten ++ [])))))) :=
    .cons (.raw (by decide) (by decide)) <| .cons .doubledQuote <|
      .cons (.pair (by decide) rfl rfl (by decide) (by decide)) <| .cons (.control (by decide)) <|
      .cons .backslash <| .cons (.bytes (.cons (.hex rfl (by decide)) (.cons (.octal rfl (by decide))
        .nil))) .nil
  have hchars : s.toList = ['i', '\'', '😀', '\n', '\\', 'é'] := by decide
  rw [← hchars] at hbody
  exact ⟨hzero, hbody, (tokenize_escapeString escaping (.inl rfl) hzero hbody).1⟩

end SqlSyntax
