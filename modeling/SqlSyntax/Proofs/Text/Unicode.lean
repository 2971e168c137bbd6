import SqlSyntax.Proofs.Number.Digits
import SqlSyntax.Proofs.Text.Escape

/-!
# Bodies with Unicode escapes

A body with Unicode escapes is a sequence of units, each a character for itself, the escape
character twice, or the escape character before the digits of a code point.  Which units a
body has is said here without the reader, and so is what they stand for.

## Main definitions

* `Escape.IsUnit e w u` — with the escape character `e` the unit `w` is the item `u`.
* `Escape.Units e body us` — the body is made of units, which are the items `us`.

## Main results

* `Escape.unicodeItems_of_units`, `Escape.units_of_unicodeItems` — the units of a body.
* `Escape.decodeUnicode_iff` — **a body is decoded without faults if and only if its units stand
  for a text, which is then the text of the body.**
-/

namespace SqlSyntax
namespace Escape

variable {e : Char} {w body : List Char} {u : Item} {us : List Item}

/-- A unit of a body with the escape character `e`. -/
inductive IsUnit (e : Char) : List Char → Item → Prop
  /-- A character other than the escape character. -/
  | plain {c : Char} (hc : c ≠ e) : IsUnit e [c] (.char c)
  /-- The escape character twice. -/
  | doubled : IsUnit e [e, e] (.char e)
  /-- Four hexadecimal digits. -/
  | four {w : List Char} {n : Nat} (hlength : w.length = 4) (h : Writes 16 w n) :
    IsUnit e (e :: w) (.code n)
  /-- A plus and six hexadecimal digits. -/
  | six {w : List Char} {n : Nat} (hlength : w.length = 6) (h : Writes 16 w n) :
    IsUnit e (e :: '+' :: w) (.code n)

/-- A body that is a sequence of units. -/
inductive Units (e : Char) : List Char → List Item → Prop
  | nil : Units e [] []
  | cons {w body : List Char} {u : Item} {us : List Item} (h : IsUnit e w u)
    (hs : Units e body us) : Units e (w ++ body) (u :: us)

/-! ### The units of a body are read -/

/-- The characters of an item that was read are passed over. -/
theorem unicodeItems_skip (e : Char) (w body : List Char) :
    unicodeItems e w.length (w ++ body) = unicodeItems e 0 body := by
  induction w with
  | nil => rfl
  | cons c w ih => exact ih

theorem unicodeItems_escape (e : Char) (body : List Char) : unicodeItems e 0 (e :: body)
    = (unicodeItem e body).1 :: unicodeItems e (unicodeItem e body).2 body := by
  rw [unicodeItems, if_pos rfl]

theorem unicodeItem_doubled (e : Char) (body : List Char) :
    unicodeItem e (e :: body) = (.char e, 1) := by
  rw [unicodeItem, List.head?_cons, if_pos rfl]

/-- Neither the escape character nor a plus is a digit. -/
theorem unicodeItem_four {n : Nat} (hdigit : isDigitOf 16 e = false) (hlength : w.length = 4)
    (h : Writes 16 w n) (body : List Char) : unicodeItem e (w ++ body) = (.code n, 4) := by
  obtain ⟨c, hhead, hc⟩ := (Option.any_eq_true ..).mp (h.any_head? (by omega) body)
  have hread := h.fixedDigits_eq body
  rw [hlength] at hread
  rw [unicodeItem, hhead, if_neg, if_neg, hread]
  · rfl
  · rintro ⟨⟩
    cases hc
  · rintro ⟨⟩
    rw [hdigit] at hc
    cases hc

theorem unicodeItem_six {n : Nat} (hplus : e ≠ '+') (hlength : w.length = 6) (h : Writes 16 w n)
    (body : List Char) : unicodeItem e ('+' :: (w ++ body)) = (.code n, 7) := by
  have hread := h.fixedDigits_eq body
  rw [hlength] at hread
  rw [unicodeItem, List.head?_cons, if_neg, if_pos rfl, List.drop_succ_cons, List.drop_zero, hread]
  · rfl
  · rintro ⟨⟩
    exact hplus rfl

theorem unicodeItems_unit (hdigit : isDigitOf 16 e = false) (hplus : e ≠ '+') (h : IsUnit e w u)
    (body : List Char) : unicodeItems e 0 (w ++ body) = u :: unicodeItems e 0 body := by
  cases h with
  | plain hc => rw [List.singleton_append, unicodeItems, if_neg hc]
  | doubled =>
    rw [List.cons_append, List.singleton_append, unicodeItems_escape, unicodeItem_doubled]
    exact congrArg _ (unicodeItems_skip e [e] body)
  | @four w n hlength h =>
    have hskip := unicodeItems_skip e w body
    rw [hlength] at hskip
    rw [List.cons_append, unicodeItems_escape, unicodeItem_four hdigit hlength h]
    exact congrArg _ hskip
  | @six w n hlength h =>
    have hskip := unicodeItems_skip e ('+' :: w) body
    rw [List.length_cons, hlength] at hskip
    rw [List.cons_append, List.cons_append, unicodeItems_escape, unicodeItem_six hplus hlength h]
    exact congrArg _ hskip

theorem unicodeItems_of_units (hdigit : isDigitOf 16 e = false) (hplus : e ≠ '+')
    (h : Units e body us) : unicodeItems e 0 body = us := by
  induction h with
  | nil => rfl
  | cons h _ ih => rw [unicodeItems_unit hdigit hplus h, ih]

/-! ### What is read are units -/

/-- What follows an escape character makes a unit with it, unless digits are missing. -/
theorem isUnit_unicodeItem (h : (unicodeItem e body).1 ≠ .malformed) : ∃ w t, body = w ++ t ∧
    w.length = (unicodeItem e body).2 ∧ IsUnit e (e :: w) (unicodeItem e body).1 := by
  unfold unicodeItem at h ⊢
  by_cases hescape : body.head? = some e
  · obtain ⟨t, rfl⟩ := List.head?_eq_some_iff.mp hescape
    rw [if_pos hescape]
    exact ⟨[e], t, rfl, rfl, .doubled⟩
  rw [if_neg hescape] at h ⊢
  by_cases hplus : body.head? = some '+'
  · obtain ⟨t, rfl⟩ := List.head?_eq_some_iff.mp hplus
    rw [if_pos hplus, List.drop_succ_cons, List.drop_zero] at h ⊢
    cases hread : fixedDigits 16 6 t with
    | none =>
      rw [hread] at h
      exact absurd rfl h
    | some n =>
      obtain ⟨w, t, rfl, hlength, hw⟩ := fixedDigits_eq_some_iff.mp hread
      refine ⟨'+' :: w, t, rfl, ?_, .six hlength hw⟩
      rw [List.length_cons, hlength]
      rfl
  · rw [if_neg hplus] at h ⊢
    cases hread : fixedDigits 16 4 body with
    | none =>
      rw [hread] at h
      exact absurd rfl h
    | some n =>
      obtain ⟨w, t, rfl, hlength, hw⟩ := fixedDigits_eq_some_iff.mp hread
      exact ⟨w, t, rfl, hlength, .four hlength hw⟩

/-- A body whose escapes all have their digits is a sequence of units. -/
theorem units_of_unicodeItems (h : .malformed ∉ unicodeItems e 0 body) :
    Units e body (unicodeItems e 0 body) := by
  induction hlength : body.length using Nat.strongRecOn generalizing body with
  | ind length ih =>
    subst hlength
    cases body with
    | nil => exact .nil
    | cons c body =>
      by_cases hc : c = e
      · subst hc
        rw [unicodeItems_escape, List.mem_cons, not_or] at h
        obtain ⟨w, t, hbody, hw, hunit⟩ := isUnit_unicodeItem (Ne.symm h.1)
        rw [unicodeItems_escape]
        generalize unicodeItem c body = r at h hw hunit
        subst hbody
        rw [← hw, unicodeItems_skip] at h ⊢
        refine .cons hunit (ih t.length ?_ h.2 rfl)
        rw [List.length_cons, List.length_append]
        omega
      · have hread : unicodeItems e 0 (c :: body) = .char c :: unicodeItems e 0 body := by
          rw [unicodeItems, if_neg hc]
        rw [hread, List.mem_cons, not_or] at h
        rw [hread]
        exact .cons (.plain hc) (ih body.length (Nat.lt_succ_self _) h.2 rfl)

/-! ### The text of a body -/

theorem unicodeItem_ne_byte (e : Char) (body : List Char) (b : UInt8) :
    (unicodeItem e body).1 ≠ .byte b := by
  unfold unicodeItem
  split
  · exact nofun
  split
  · cases fixedDigits 16 6 (body.drop 1) <;> exact nofun
  · cases fixedDigits 16 4 body <;> exact nofun

theorem byte_not_mem_unicodeItems (e : Char) (skip : Nat) (body : List Char) (b : UInt8) :
    .byte b ∉ unicodeItems e skip body := by
  induction body generalizing skip with
  | nil =>
    rw [unicodeItems]
    exact List.not_mem_nil
  | cons c body ih =>
    cases skip with
    | succ skip => exact ih skip
    | zero =>
      rw [unicodeItems]
      split
      · exact List.not_mem_cons_of_ne_of_not_mem (unicodeItem_ne_byte e body b).symm (ih _)
      · exact List.not_mem_cons_of_ne_of_not_mem nofun (ih _)

/-- A character that may be named as escape character is neither a digit nor a plus. -/
theorem of_escapeChar {named : List Char} (h : escapeChar named = some e) :
    isDigitOf 16 e = false ∧ e ≠ '+' := by
  unfold escapeChar at h
  split at h
  · split at h
    · next hmay =>
      cases h
      simp only [mayEscape, Bool.not_eq_true', Bool.or_eq_false_iff, beq_eq_false_iff_ne] at hmay
      exact ⟨hmay.1.1.1.1, hmay.1.1.1.2⟩
    · cases h
  · cases h

/-- **A body is decoded without faults if and only if its units stand for a text**, which is
then the text of the body.  The escape character is a backslash or any other that may be
named. -/
theorem decodeUnicode_iff (he : e = '\\' ∨ ∃ named, escapeChar named = some e)
    (body : List Char) :
    ((decodeUnicode e body).faults = [] ↔ ∃ us text, Units e body us ∧ Denotes us text) ∧
      ∀ us text, Units e body us → Denotes us text → (decodeUnicode e body).text = text := by
  obtain ⟨hdigit, hplus⟩ : isDigitOf 16 e = false ∧ e ≠ '+' := by
    rcases he with rfl | ⟨named, hnamed⟩
    · decide
    · exact of_escapeChar hnamed
  have hdecode {us : List Item} {text : List Char} (hus : Units e body us)
      (htext : Denotes us text) : decodeUnicode e body = ⟨text, []⟩ := by
    rw [decodeUnicode, unicodeItems_of_units hdigit hplus hus, assemble_of_denotes htext]
  refine ⟨⟨fun hfaults => ?_, ?_⟩, fun us text hus htext => by rw [hdecode hus htext]⟩
  · have hnone : ∀ high ∈ (none : Option Nat), isHigh high = true := nofun
    obtain ⟨text, htext⟩ : ∃ text, Denotes (unicodeItems e 0 body) text :=
      exists_denotes hnone (byte_not_mem_unicodeItems e 0 body) (fault?_of_faults_assemble hfaults)
    exact ⟨_, text, units_of_unicodeItems htext.malformed_not_mem, htext⟩
  · rintro ⟨us, text, hus, htext⟩
    rw [hdecode hus htext]

/-- The halves of a pair may be written in different widths. -/
theorem decodeUnicode_iff_pair :
    let body := "!!!D83D!+00DE00".toList
    let us : List Item := [.char '!', .code 0xD83D, .code 0xDE00]
    escapeChar ['!'] = some '!' ∧ Units '!' body us ∧ Denotes us ['!', '😀'] ∧
      (decodeUnicode '!' body).faults = [] ∧ (decodeUnicode '!' body).text = ['!', '😀'] := by
  intro body us
  have hescape : escapeChar ['!'] = some '!' := by decide
  have hunits : Units '!' (['!', '!'] ++ (['!', 'D', '8', '3', 'D'] ++
      (['!', '+', '0', '0', 'D', 'E', '0', '0'] ++ []))) us :=
    .cons .doubled (.cons (.four rfl (by decide)) (.cons (.six rfl (by decide)) .nil))
  have hbody : body = ['!', '!'] ++ (['!', 'D', '8', '3', 'D'] ++
      (['!', '+', '0', '0', 'D', 'E', '0', '0'] ++ [])) := by decide
  rw [← hbody] at hunits
  have hpair : StandsFor [.code 0xD83D, .code 0xDE00] '😀' := .pair (c := '😀') (by decide)
  have htext : Denotes us ['!', '😀'] := .one (.char '!') (.two hpair .nil)
  obtain ⟨hiff, hread⟩ := decodeUnicode_iff (.inr ⟨['!'], hescape⟩) body
  exact ⟨hescape, hunits, htext, hiff.mpr ⟨us, _, hunits, htext⟩, hread us _ hunits htext⟩

end Escape
end SqlSyntax
