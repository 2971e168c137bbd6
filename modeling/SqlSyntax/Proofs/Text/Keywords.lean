import SqlSyntax.Proofs.Text.Characters
import Mathlib.Data.List.Chain

/-!
# The spelling of keywords

A keyword is spelled in bare characters, and no two keywords are spelled alike: the table
lists them in alphabetical order.  So the search by halving finds a keyword by its spelling,
and no word that is turned away before the search could have been found.

## Main results

* `spelling_isWord` — a keyword is a short word in bare characters.
* `row?_eq_some_iff` — **the search finds the row with a spelling.**
* `lookupEntry_eq_some_iff`, `lookup_eq_some_iff` — **a word is found if its spelling in
  lower case is in the table.**
* `lookup_spelling`, `lookup_text` — a keyword is found by its own spelling.
-/

namespace SqlSyntax

namespace Keyword

theorem mem_all (k : Keyword) : k ∈ all := by
  have hplace : all[k.ctorIdx]? = some k := by cases k <;> rfl
  exact List.mem_of_getElem? hplace

/-- Whether a text is a word of bare characters, and not too long for a keyword. -/
def isShortWord (cs : List Char) : Bool :=
  cs.head?.any Quoted.isBareStart && cs.all Quoted.isBareChar && cs.length ≤ maxLength

/-- The spellings are in alphabetical order, and each is a short word: one decision for both, so
that each spelling is taken apart once. -/
theorem spelling_table : (all.map spelling).IsChain (· < ·) ∧
    (all.all fun k => isShortWord k.spelling.toList) = true := by
  decide +kernel

/-- The keywords are listed in alphabetical order. -/
theorem sorted_spelling : (all.map spelling).Pairwise (· < ·) :=
  List.isChain_iff_pairwise.mp spelling_table.1

/-- A keyword is spelled in bare characters, and it is short. -/
theorem spelling_isWord (k : Keyword) : k.spelling.toList.head?.any Quoted.isBareStart = true ∧
    (∀ c ∈ k.spelling.toList, Quoted.isBareChar c = true) ∧
    k.spelling.toList.length ≤ maxLength := by
  have hword := List.all_eq_true.mp spelling_table.2 k k.mem_all
  rw [isShortWord, Bool.and_eq_true, Bool.and_eq_true, List.all_eq_true, decide_eq_true_eq] at hword
  exact ⟨hword.1.1, hword.1.2, hword.2⟩

theorem isBareChar_spelling (k : Keyword) : ∀ c ∈ k.spelling.toList, Quoted.isBareChar c = true :=
  k.spelling_isWord.2.1

/-- The rows of the table are in order of their spellings, each of them once. -/
theorem sorted_table : table.Pairwise fun e e' => e.spelling < e'.spelling := by
  rw [table, List.pairwise_map]
  exact List.pairwise_map.mp sorted_spelling

/-- **The search by halving** finds the row with a spelling, and no other. -/
theorem row?_eq_some_iff {word : String} {e : KeywordEntry} :
    row? word = some e ↔ e ∈ table ∧ e.spelling = word := by
  constructor
  · intro hrow
    rw [row?, Option.filter_eq_some_iff, beq_iff_eq] at hrow
    obtain ⟨hget, hspelling⟩ := hrow
    exact ⟨List.mem_toArray.mp (Array.mem_of_getElem? hget), hspelling⟩
  · rintro ⟨hmem, rfl⟩
    obtain ⟨before, behind, htable⟩ := List.append_of_mem hmem
    have hsorted := sorted_table
    rw [htable, List.pairwise_append, List.pairwise_cons] at hsorted
    obtain ⟨-, ⟨hbehind, -⟩, hbefore⟩ := hsorted
    -- the border of the search is between the rows before this one and the row itself
    have hrows : table.toArray.toList = before ++ e :: behind := htable
    have hplace := partitionPoint_append (p := fun r => decide (r.spelling < e.spelling)) hrows
      (fun r hr => decide_eq_true (hbefore r hr e List.mem_cons_self)) fun r hr => by
        rw [decide_eq_false_iff_not]
        rcases List.mem_cons.mp hr with rfl | hr
        · exact String.lt_irrefl _
        · exact String.lt_asymm (hbehind r hr)
    have hget : table.toArray[before.length]? = some e := by simp [htable]
    rw [row?, hplace, hget]
    exact if_pos (beq_self_eq_true e.spelling)

theorem exists_entry_of_mem {e : KeywordEntry} (h : e ∈ table) : ∃ k, entry k = e := by
  obtain ⟨k, -, hk⟩ := List.mem_map.mp h
  exact ⟨k, hk⟩

/-- A word that spells a row in some case is in ASCII and not too long. -/
theorem not_guarded {word : List Char} {k : Keyword} (h : k.spelling.toList = lowerCase word) :
    byteLength word ≤ maxLength ∧ ∀ c ∈ word, isAscii c = true := by
  have hascii : ∀ c ∈ word, isAscii c = true := fun c hc =>
    isAscii_of_toLower (decide_eq_true (toNat_lt_of_isBareChar
      (k.isBareChar_spelling _ (h ▸ List.mem_map_of_mem hc))))
  have hlength : word.length = k.spelling.toList.length := by rw [h, lowerCase, List.length_map]
  exact ⟨byteLength_of_isAscii hascii ▸ hlength ▸ k.spelling_isWord.2.2, hascii⟩

/-- **A word is looked up by its spelling in lower case**, and found if it is in the table. -/
theorem lookupEntry_eq_some_iff {word : List Char} {e : KeywordEntry} :
    lookupEntry word = some e ↔ e ∈ table ∧ e.spelling.toList = lowerCase word := by
  have hrow : row? (String.ofList (lowerCase word)) = some e
      ↔ e ∈ table ∧ e.spelling.toList = lowerCase word := by
    rw [row?_eq_some_iff, ← String.toList_inj, String.toList_ofList]
  rw [lookupEntry]
  split
  · next hguard =>
    refine iff_of_false nofun fun ⟨hmem, hspelling⟩ => ?_
    obtain ⟨k, rfl⟩ := exists_entry_of_mem hmem
    obtain ⟨hlength, hascii⟩ := not_guarded hspelling
    rw [List.all_eq_true.mpr hascii, Bool.not_true, Bool.or_false, decide_eq_true_eq] at hguard
    exact Nat.not_lt_of_le hlength hguard
  · exact hrow

theorem lookup_eq_some_iff {word : List Char} {k : Keyword} :
    lookup word = some k ↔ k.spelling.toList = lowerCase word := by
  rw [lookup, Option.map_eq_some_iff]
  constructor
  · rintro ⟨e, he, rfl⟩
    obtain ⟨hmem, hspelling⟩ := lookupEntry_eq_some_iff.mp he
    obtain ⟨w, rfl⟩ := exists_entry_of_mem hmem
    exact hspelling
  · intro h
    exact ⟨k.entry, lookupEntry_eq_some_iff.mpr ⟨List.mem_map_of_mem k.mem_all, h⟩, rfl⟩

theorem lookup_spelling (k : Keyword) : lookup k.spelling.toList = some k :=
  lookup_eq_some_iff.mpr (lowerCase_of_isBareChar k.isBareChar_spelling).symm

theorem toList_text (k : Keyword) : k.text.toList = k.spelling.toList.map Char.toUpper :=
  String.toList_ofList

theorem lookup_text (k : Keyword) : lookup k.text.toList = some k := by
  have hlower : lowerCase k.text.toList = k.spelling.toList := by
    rw [toList_text, lowerCase, List.map_map]
    exact (List.map_congr_left fun c hc => toLower_toUpper_of_isBareChar
      (k.isBareChar_spelling c hc)).trans (List.map_id _)
  exact lookup_eq_some_iff.mpr hlower.symm

end Keyword

end SqlSyntax
