import Mathlib.Data.List.TakeWhile
import SqlSyntax.Number.Long
import SqlSyntax.Proofs.Number.Digits

/-!
# The lenient conversion is exact

What a text denotes is said here without the reader: behind blanks and a sign the radix is
fixed by the spelling, and the longest run of digits has an exact value, which may be of any
size.  The reader keeps no more than a word and a flag, and still finds the clamped value.

## Main definitions

* `Long.HasRun radix cs n` — the longest run of digits at the start of `cs` has the value `n`.
* `Long.IsUnsigned`, `Long.IsSigned`, `Long.Denotes` — what texts denote.

## Main results

* `Long.gathers_foldl` — the flag and the word tell whether the exact value fits, and which
  it is.
* `Long.magnitude_of_hasRun` — the magnitude is the clamped exact value.
* `Long.readHere_eq_iff` — a text denotes what is read from it.
* `Long.read_eq_iff` — **the lenient conversion is exact.**
-/

namespace SqlSyntax
namespace Long

variable {radix n digit : Nat} {cs : List Char} {ds : List Nat} {w : Word} {v : Int}

/-! ### What is gathered -/

/-- The word holds the exact value `n` unless that has overflowed. -/
structure Word.Gathers (w : Word) (n : Nat) : Prop where
  overflowed_iff : w.overflowed = true ↔ maxWord < n
  value_eq : w.overflowed = false → w.value = n

theorem Word.gathers_zero : Word.zero.Gathers 0 :=
  ⟨iff_of_false Bool.false_ne_true (Nat.not_lt_zero _), fun _ => rfl⟩

/-- One more digit keeps the word and the flag right: a value that was too large stays so. -/
theorem Word.Gathers.push (hradix : 0 < radix) (h : w.Gathers n) (digit : Nat) :
    (w.push radix digit).Gathers (n * radix + digit) := by
  have hgrows : n ≤ n * radix := Nat.le_mul_of_pos_right n hradix
  cases hflag : w.overflowed with
  | true =>
    -- what is stored no longer matters
    have hlarge := h.overflowed_iff.mp hflag
    have hstays : (w.push radix digit).overflowed = true := by
      unfold Word.push
      split
      · exact hflag
      · rfl
    refine ⟨iff_of_true hstays (by omega), fun hnot => ?_⟩
    rw [hstays] at hnot
    cases hnot
  | false =>
    obtain rfl := h.value_eq hflag
    unfold Word.push
    split
    · next hfits =>
      refine ⟨iff_of_false ?_ (Nat.not_lt.mpr hfits), fun _ => rfl⟩
      rw [hflag]
      exact Bool.false_ne_true
    · next hlarge => exact ⟨iff_of_true rfl (Nat.not_le.mp hlarge), nofun⟩

/-- **The flag tells whether the exact value of digits fits, and if so the word is that
value.** -/
theorem gathers_foldl (hradix : 0 < radix) (ds : List Nat) :
    (ds.foldl (Word.push radix) Word.zero).Gathers (Nat.ofDigits radix ds.reverse) := by
  induction ds using List.reverseRecOn with
  | nil => exact Word.gathers_zero
  | append_singleton ds d ih =>
    rw [List.foldl_append, ofDigits_reverse_concat]
    exact ih.push hradix d

theorem Word.Gathers.clamped_eq (h : w.Gathers n) : w.clamped = min n maxWord := by
  unfold Word.clamped
  split
  · next hflag => exact (Nat.min_eq_right (h.overflowed_iff.mp hflag).le).symm
  · next hflag =>
    rw [h.value_eq (Bool.eq_false_iff.mpr hflag)]
    exact (Nat.min_eq_left (Nat.not_lt.mp (hflag ∘ h.overflowed_iff.mpr))).symm

/-! ### Runs of digits -/

/-- The longest run of digits at the start of the text has this value; without digits it is
zero. -/
def HasRun (radix : Nat) (cs : List Char) (n : Nat) : Prop :=
  ∃ run rest, cs = run ++ rest ∧ Writes radix run n ∧ ∀ c ∈ rest.head?, isDigitOf radix c = false

theorem leadingDigits_eq_nil (h : ∀ c ∈ cs.head?, isDigitOf radix c = false) :
    leadingDigits radix cs = [] := by
  cases cs with
  | nil => rfl
  | cons c cs =>
    have hc := h c rfl
    rw [isDigitOf, Option.isSome_eq_false_iff, Option.isNone_iff_eq_none] at hc
    rw [leadingDigits, hc]

/-- Every text starts with a run of digits, and its digits are those that are read. -/
theorem exists_run (radix : Nat) (cs : List Char) : ∃ run rest, cs = run ++ rest ∧
    AreDigits radix run (leadingDigits radix cs) ∧ ∀ c ∈ rest.head?, isDigitOf radix c = false := by
  induction cs with
  | nil => exact ⟨[], [], rfl, .nil, nofun⟩
  | cons c cs ih =>
    rw [leadingDigits]
    cases hc : digitValue radix c with
    | none =>
      refine ⟨[], c :: cs, rfl, .nil, ?_⟩
      rintro _ ⟨⟩
      rw [isDigitOf, hc]
      rfl
    | some d =>
      obtain ⟨run, rest, rfl, hrun, hrest⟩ := ih
      exact ⟨c :: run, rest, rfl, .cons hc hrun, hrest⟩

theorem hasRun_iff : HasRun radix cs n ↔ n = Nat.ofDigits radix (leadingDigits radix cs).reverse := by
  constructor
  · rintro ⟨run, rest, rfl, ⟨ds, hds, rfl⟩, hrest⟩
    rw [leadingDigits_of_areDigits hds, leadingDigits_eq_nil hrest, List.append_nil]
  · rintro rfl
    obtain ⟨run, rest, hcs, hrun, hrest⟩ := exists_run radix cs
    exact ⟨run, rest, hcs, ⟨_, hrun, rfl⟩, hrest⟩

/-- **The magnitude is the exact value of the digits, clamped to a word.** -/
theorem magnitude_of_hasRun (hradix : 0 < radix) (h : HasRun radix cs n) :
    magnitude radix cs = min n maxWord := by
  rw [hasRun_iff.mp h]
  exact (gathers_foldl hradix _).clamped_eq

/-! ### What texts denote -/

/-- A zero and a mark for hexadecimal digits, with such a digit behind it. -/
def Marked (cs : List Char) : Prop :=
  ∃ x c rest, cs = '0' :: x :: c :: rest ∧ (x = 'x' ∨ x = 'X') ∧ isDigitOf 16 c = true

/-- The value of a number without sign.  Radix zero leaves the choice to the spelling. -/
inductive IsUnsigned (radix : Nat) : List Char → Nat → Prop
  /-- The mark for hexadecimal digits is skipped. -/
  | marked {zero x : Char} {cs : List Char} {n : Nat} (hradix : radix = 0 ∨ radix = 16)
    (hmark : Marked (zero :: x :: cs)) (h : HasRun 16 cs n) : IsUnsigned radix (zero :: x :: cs) n
  /-- A zero in front means octal digits. -/
  | octal {cs : List Char} {n : Nat} (hradix : radix = 0) (hmark : ¬ Marked ('0' :: cs))
    (h : HasRun 8 ('0' :: cs) n) : IsUnsigned radix ('0' :: cs) n
  /-- Otherwise the digits are decimal. -/
  | decimal {cs : List Char} {n : Nat} (hradix : radix = 0) (hzero : cs.head? ≠ some '0')
    (h : HasRun 10 cs n) : IsUnsigned radix cs n
  /-- The radix is given, and there is no mark to skip. -/
  | given {cs : List Char} {n : Nat} (hradix : radix ≠ 0) (hmark : radix = 16 → ¬ Marked cs)
    (h : HasRun radix cs n) : IsUnsigned radix cs n

/-- The value of a 64-bit word in two's complement that is congruent to `n`. -/
def wrap (n : Int) : Int :=
  n.bmod (2 ^ 64)

/-- The exact value, or the largest unsigned 64-bit value in the place of all from `2 ^ 64` on. -/
def clamp (n : Nat) : Nat :=
  if n < 2 ^ 64 then n else 2 ^ 64 - 1

/-- The value of a number behind an optional sign: the clamped magnitude is read in two's
complement, and a minus sign negates that. -/
inductive IsSigned (radix : Nat) : List Char → Int → Prop
  | minus {cs : List Char} {n : Nat} (h : IsUnsigned radix cs n) :
    IsSigned radix ('-' :: cs) (wrap (-wrap (clamp n)))
  | plus {cs : List Char} {n : Nat} (h : IsUnsigned radix cs n) :
    IsSigned radix ('+' :: cs) (wrap (clamp n))
  | bare {cs : List Char} {n : Nat} (hminus : cs.head? ≠ some '-') (hplus : cs.head? ≠ some '+')
    (h : IsUnsigned radix cs n) : IsSigned radix cs (wrap (clamp n))

/-- The value of a text: that of the number behind all blanks that it starts with. -/
def Denotes (radix : Nat) (cs : List Char) (v : Int) : Prop :=
  ∃ blanks number, cs = blanks ++ number ∧ (∀ c ∈ blanks, isAsciiBlank c = true) ∧
    (∀ c ∈ number.head?, isAsciiBlank c = false) ∧ IsSigned radix number v

/-! ### What is read -/

theorem hasHexMark_iff (cs : List Char) : hasHexMark cs = true ↔ Marked cs := by
  unfold hasHexMark
  split
  · next x d rest =>
    rw [Bool.and_eq_true, Bool.or_eq_true, beq_iff_eq, beq_iff_eq]
    constructor
    · exact fun ⟨hx, hd⟩ => ⟨x, d, rest, rfl, hx, hd⟩
    · rintro ⟨_, _, _, heq, hx, hd⟩
      cases heq
      exact ⟨hx, hd⟩
  · next hother =>
    refine iff_of_false Bool.false_ne_true ?_
    rintro ⟨x, c, rest, rfl, -, -⟩
    exact hother x c rest rfl

theorem not_marked_of_head? (h : cs.head? ≠ some '0') : ¬ Marked cs := by
  rintro ⟨x, c, rest, rfl, -, -⟩
  exact h rfl

/-- The radix that is chosen is that of the digits, and the digits start where it says. -/
theorem isUnsigned_iff :
    IsUnsigned radix cs n ↔ HasRun (chooseRadix radix cs).1 (chooseRadix radix cs).2 n := by
  have hmarked {cs : List Char} (h : hasHexMark cs = true) : Marked cs := (hasHexMark_iff cs).mp h
  unfold chooseRadix
  constructor
  · intro h
    -- each spelling decides the two tests of the choice
    cases h with
    | marked hradix hmark h => rwa [if_pos ⟨(hasHexMark_iff _).mpr hmark, hradix⟩]
    | octal hradix hmark h => rwa [if_neg fun hboth => hmark (hmarked hboth.1), if_pos hradix]
    | decimal hradix hzero h =>
      rwa [if_neg fun hboth => not_marked_of_head? hzero (hmarked hboth.1), if_pos hradix,
        if_neg hzero]
    | given hradix hmark h =>
      rwa [if_neg fun hboth => hmark (hboth.2.resolve_left hradix) (hmarked hboth.1),
        if_neg hradix]
  · intro h
    -- and the outcome of the tests tells the spelling
    by_cases hmark : hasHexMark cs = true ∧ (radix = 0 ∨ radix = 16)
    · rw [if_pos hmark] at h
      obtain ⟨x, c, rest, rfl, hx, hc⟩ := hmarked hmark.1
      exact .marked hmark.2 ⟨x, c, rest, rfl, hx, hc⟩ h
    have hnone (hradix : radix = 0 ∨ radix = 16) : ¬ Marked cs := fun hm =>
      hmark ⟨(hasHexMark_iff cs).mpr hm, hradix⟩
    rw [if_neg hmark] at h
    by_cases hradix : radix = 0
    · rw [if_pos hradix] at h
      by_cases hzero : cs.head? = some '0'
      · rw [if_pos hzero] at h
        obtain ⟨rest, rfl⟩ := List.head?_eq_some_iff.mp hzero
        exact .octal hradix (hnone (.inl hradix)) h
      · rw [if_neg hzero] at h
        exact .decimal hradix hzero h
    · rw [if_neg hradix] at h
      exact .given hradix (fun hsixteen => hnone (.inr hsixteen)) h

theorem chooseRadix_pos (radix : Nat) (cs : List Char) : 0 < (chooseRadix radix cs).1 := by
  unfold chooseRadix
  split
  · exact Nat.zero_lt_succ 15
  split
  · dsimp only
    split <;> exact Nat.zero_lt_succ _
  · next hradix => exact Nat.pos_of_ne_zero hradix

theorem clamp_eq (n : Nat) : clamp n = min n maxWord := by
  have hword : maxWord = 2 ^ 64 - 1 := rfl
  unfold clamp
  rw [hword]
  split <;> omega

theorem magnitude_of_isUnsigned (h : IsUnsigned radix cs n) :
    magnitude (chooseRadix radix cs).1 (chooseRadix radix cs).2 = clamp n := by
  rw [clamp_eq]
  exact magnitude_of_hasRun (chooseRadix_pos radix cs) (isUnsigned_iff.mp h)

/-- The value of a number with this sign. -/
def signedValue : Bool → Nat → Int
  | true, n => wrap (-wrap (clamp n))
  | false, n => wrap (clamp n)

theorem isSigned_iff {negative : Bool} {unsigned : List Char}
    (hsign : splitSign cs = (negative, unsigned)) :
    IsSigned radix cs v ↔ ∃ n, IsUnsigned radix unsigned n ∧ v = signedValue negative n := by
  unfold splitSign at hsign
  constructor
  · intro h
    cases h with
    | @minus cs n h | @plus cs n h =>
      cases hsign
      exact ⟨n, h, rfl⟩
    | @bare _ n hminus hplus h =>
      split at hsign
      · exact absurd rfl hminus
      · exact absurd rfl hplus
      · cases hsign
        exact ⟨n, h, rfl⟩
  · rintro ⟨n, h, rfl⟩
    split at hsign
    · cases hsign
      exact .minus h
    · cases hsign
      exact .plus h
    · next hminus hplus =>
      cases hsign
      refine .bare (fun hhead => ?_) (fun hhead => ?_) h
      · obtain ⟨rest, hcs⟩ := List.head?_eq_some_iff.mp hhead
        exact hminus rest hcs
      · obtain ⟨rest, hcs⟩ := List.head?_eq_some_iff.mp hhead
        exact hplus rest hcs

/-- A word is negated as its value is, up to the size of a word. -/
theorem toInt_word (negative : Bool) (n : Nat) :
    (if negative then -BitVec.ofNat 64 (clamp n) else BitVec.ofNat 64 (clamp n)).toInt
      = signedValue negative n := by
  have hword : (BitVec.ofNat 64 (clamp n)).toInt = wrap (clamp n) := BitVec.toInt_ofNat _
  cases negative with
  | false => exact hword
  | true =>
    rw [if_pos rfl, BitVec.toInt_neg, hword]
    rfl

/-- What is read, if the blanks and the sign in front of a number are known. -/
theorem readHere_of_isUnsigned {negative : Bool} {unsigned : List Char}
    (hsign : splitSign (cs.dropWhile isAsciiBlank) = (negative, unsigned))
    (h : IsUnsigned radix unsigned n) : readHere radix cs = signedValue negative n := by
  unfold readHere
  rw [hsign, ← toInt_word, ← magnitude_of_isUnsigned h]

theorem denotes_iff : Denotes radix cs v ↔ IsSigned radix (cs.dropWhile isAsciiBlank) v := by
  constructor
  · rintro ⟨blanks, number, rfl, hblanks, hnumber, h⟩
    have hstop : number.dropWhile isAsciiBlank = number := by
      cases number with
      | nil => rfl
      | cons c number =>
        rw [List.dropWhile_cons_of_neg]
        rw [hnumber c rfl]
        exact Bool.false_ne_true
    rwa [List.dropWhile_append_of_pos hblanks, hstop]
  · intro h
    refine ⟨cs.takeWhile isAsciiBlank, cs.dropWhile isAsciiBlank,
      List.takeWhile_append_dropWhile.symm, fun c hc => List.mem_takeWhile_imp hc, ?_, h⟩
    intro c hc
    have hstop := List.head?_dropWhile_not isAsciiBlank cs
    rwa [Option.mem_def.mp hc] at hstop

/-- A text denotes what is read from it, and nothing else. -/
theorem readHere_eq_iff : readHere radix cs = v ↔ Denotes radix cs v := by
  obtain ⟨negative, unsigned, hsign⟩ :
      ∃ negative unsigned, splitSign (cs.dropWhile isAsciiBlank) = (negative, unsigned) :=
    ⟨_, _, rfl⟩
  rw [denotes_iff, isSigned_iff hsign]
  constructor
  · rintro rfl
    -- every text has a run of digits, if only the empty one
    have hrun : IsUnsigned radix unsigned _ := isUnsigned_iff.mpr (hasRun_iff.mpr rfl)
    exact ⟨_, hrun, readHere_of_isUnsigned hsign hrun⟩
  · rintro ⟨n, h, rfl⟩
    exact readHere_of_isUnsigned hsign h

/-- **The lenient conversion is exact.**  A radix that is impossible or an offset past the end
gives zero.  In every other case the value is that of the number at the offset: the exact value
of its longest run of digits, clamped to a 64-bit word, as its two's complement and with its
sign. -/
theorem read_eq_iff (text : List Char) (offset radix : Nat) (v : Int) :
    read text offset radix = v ↔
      if radix = 1 ∨ 36 < radix ∨ (Utf8.encode text).length < offset then v = 0
      else Denotes radix (((Utf8.encode text).drop offset).map Char.ofUInt8) v := by
  have hlength : (bytes text).length = (Utf8.encode text).length := List.length_map _
  rw [read, hlength]
  by_cases hradix : radix = 1 ∨ radix > 36
  · rw [if_pos hradix, if_pos (hradix.imp_right .inl)]
    exact eq_comm
  by_cases hoffset : (Utf8.encode text).length < offset
  · rw [if_neg hradix, if_pos hoffset, if_pos (.inr (.inr hoffset))]
    exact eq_comm
  · have hneither : ¬ (radix = 1 ∨ 36 < radix ∨ (Utf8.encode text).length < offset) := by
      rintro (hone | hlarge | hpast)
      · exact hradix (.inl hone)
      · exact hradix (.inr hlarge)
      · exact hoffset hpast
    rw [if_neg hradix, if_neg hoffset, if_neg hneither, bytes, ← List.map_drop]
    exact readHere_eq_iff

/-- A magnitude of more than 64 bits with a minus sign, behind a character of two bytes. -/
example : read "é -0xFFFF_FFFF".toList 2 0 = -65535 ∧
    read "é -99999999999999999999".toList 2 10 = 1 := by
  decide +kernel

end Long
end SqlSyntax
