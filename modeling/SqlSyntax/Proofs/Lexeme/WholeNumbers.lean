import SqlSyntax.Proofs.Rendering.Literals

/-!
# Whole numbers

A numeral without point and exponent is a whole number.  How far it extends is decided by one
rule and what its value is by another, and the two differ in one place: an underscore may follow
the mark of a radix, but no integer is written like that.  Such a number is kept as text.

## Main definitions

* `IsWholeNumber cs apart n` — the texts of whole numbers, with an underscore behind the mark of
  the radix or not.

## Main results

* `digitRun_eq_length_iff` — the digits of a numeral are those of an integer.
* `numeral_whole_iff` — what is read as a numeral without point and exponent.
* `tokenize_wholeNumber` — **whole numbers are integers if their value fits.**
-/

namespace SqlSyntax

variable {d : Dialect} {radix n : Nat} {m : Char} {cs : List Char} {ds : List Nat} {apart : Bool}

/-- The text of a whole number.  With `apart`, an underscore stands between the mark of the radix
and the digits. -/
inductive IsWholeNumber : List Char → Bool → Nat → Prop
  /-- The magnitude of an integer. -/
  | magnitude {cs : List Char} {n : Nat} (h : Int4.IsMagnitude cs n) : IsWholeNumber cs false n
  /-- An underscore behind the mark. -/
  | apart {m : Char} {radix : Nat} {cs : List Char} {ds : List Nat} (hm : (m, radix) ∈ Int4.marks)
    (h : Separated radix cs ds) :
    IsWholeNumber ('0' :: m :: '_' :: cs) true (Nat.ofDigits radix ds.reverse)

/-! ### Runs of digits -/

theorem isDigitOf_iff {c : Char} : isDigitOf radix c = true ↔ ∃ d, digitValue radix c = some d :=
  Option.isSome_iff_exists

theorem digitRun_of_separated (h : Separated radix cs ds) (inside : Bool) :
    digitRun radix inside cs = cs.length := by
  induction h generalizing inside with
  | last hc =>
    rw [digitRun, if_pos (isDigitOf_iff.mpr ⟨_, hc⟩)]
    rfl
  | digit hc _ ih => rw [digitRun, if_pos (isDigitOf_iff.mpr ⟨_, hc⟩), ih, List.length_cons]
  | @underscore c d cs ds hc h ih =>
    obtain ⟨c', cs', d', rfl, hc'⟩ := Int4.head_separated h
    have hline : isDigitOf radix '_' ≠ true := by
      intro hdigit
      obtain ⟨d, hd⟩ := isDigitOf_iff.mp hdigit
      exact Int4.ne_underscore hd rfl
    -- a digit came before the underscore, and one follows it
    have hhead : (c' :: cs').head?.any (isDigitOf radix) = true := isDigitOf_iff.mpr ⟨d', hc'⟩
    rw [digitRun, if_pos (isDigitOf_iff.mpr ⟨_, hc⟩), digitRun, if_neg hline,
      if_pos ⟨rfl, rfl, hhead⟩, ih]
    rfl

/-- A run of digits that takes the whole text has them separated, if it starts with a digit or a
digit comes before it. -/
theorem exists_separated_of_digitRun {inside : Bool} (h : digitRun radix inside cs = cs.length) :
    (cs.head?.any (isDigitOf radix) = true → ∃ ds, Separated radix cs ds) ∧
      (inside = true → ∀ c d, digitValue radix c = some d → ∃ ds, Separated radix (c :: cs) ds) := by
  induction cs generalizing inside with
  | nil => exact ⟨nofun, fun _ c d hc => ⟨[d], .last hc⟩⟩
  | cons x xs ih =>
    rw [digitRun, List.length_cons] at h
    by_cases hx : isDigitOf radix x = true
    · rw [if_pos hx] at h
      obtain ⟨e, he⟩ := isDigitOf_iff.mp hx
      obtain ⟨ds, hds⟩ := (ih (Nat.succ.inj h)).2 rfl x e he
      exact ⟨fun _ => ⟨ds, hds⟩, fun _ c d hc => ⟨d :: ds, .digit hc hds⟩⟩
    rw [if_neg hx] at h
    by_cases hline : x = '_' ∧ inside = true ∧ xs.head?.any (isDigitOf radix) = true
    · -- the underscore stands between two digits
      rw [if_pos hline] at h
      obtain ⟨rfl, -, hhead⟩ := hline
      obtain ⟨ds, hds⟩ := (ih (Nat.succ.inj h)).1 hhead
      exact ⟨fun hdigit => absurd hdigit hx, fun _ c d hc => ⟨d :: ds, .underscore hc hds⟩⟩
    · rw [if_neg hline] at h
      cases h

/-- **The digits of a numeral are those of an integer**: what one rule takes for a run of digits
is what the other reads. -/
theorem digitRun_eq_length_iff :
    (cs ≠ [] ∧ digitRun radix false cs = cs.length) ↔ ∃ ds, Separated radix cs ds := by
  constructor
  · rintro ⟨hne, h⟩
    refine (exists_separated_of_digitRun h).1 ?_
    cases cs with
    | nil => exact absurd rfl hne
    | cons c cs =>
      -- otherwise the run would be empty
      by_contra hc
      have hc : ¬ isDigitOf radix c = true := hc
      rw [digitRun, if_neg hc, if_neg fun hline => Bool.false_ne_true hline.2.1] at h
      cases h
  · rintro ⟨ds, h⟩
    refine ⟨?_, digitRun_of_separated h false⟩
    rintro rfl
    cases h

/-! ### Numerals -/

theorem markedRadix_eq_some_iff : markedRadix m = some radix ↔ (m, radix) ∈ Int4.marks := by
  constructor
  · intro h
    unfold markedRadix at h
    split at h
    · next hm =>
      cases h
      rcases hm with rfl | rfl <;> decide
    split at h
    · next hm =>
      cases h
      rcases hm with rfl | rfl <;> decide
    split at h
    · next hm =>
      cases h
      rcases hm with rfl | rfl <;> decide
    · cases h
  · intro h
    have hmarks : ∀ p ∈ Int4.marks, markedRadix p.1 = some p.2 := by decide
    exact hmarks _ h

theorem isDigit_of_digitValue {c : Char} {v : Nat} (hc : digitValue 10 c = some v) :
    c.isDigit = true := by
  obtain ⟨hdigit, hlt⟩ := Option.filter_eq_some_iff.mp hc
  have hten : v < 10 := of_decide_eq_true hlt
  unfold digitOf at hdigit
  split at hdigit
  · next hrange =>
    rw [Char.isDigit, Bool.and_eq_true, decide_eq_true_eq, decide_eq_true_eq]
    exact hrange
  split at hdigit
  · have := Option.some.inj hdigit
    omega
  split at hdigit
  · have := Option.some.inj hdigit
    omega
  · cases hdigit

/-- Neither a decimal digit nor an underscore marks a radix. -/
theorem markedRadix_of_separated (h : Separated 10 cs ds) : ∀ c ∈ cs, markedRadix c = none := by
  intro c hc
  rcases Int4.mem_separated h hc with rfl | ⟨d, hd⟩
  · rfl
  · exact of_isDigit (P := fun c => markedRadix c = none) (by decide) (isDigit_of_digitValue hd)

/-- The underscore that may follow the mark, and the digits. -/
theorem markedLength_of_separated {line : List Char} (hm : (m, radix) ∈ Int4.marks)
    (hline : line = [] ∨ line = ['_']) (h : Separated radix cs ds) :
    markedLength ('0' :: m :: (line ++ cs)) = some ('0' :: m :: (line ++ cs)).length := by
  have hleading : leadingLine (line ++ cs) = line.length := by
    rcases hline with rfl | rfl
    · obtain ⟨c, cs', d, rfl, hc⟩ := Int4.head_separated h
      exact if_neg fun hhead => Int4.ne_underscore hc (Option.some.inj hhead)
    · rfl
  have hne : cs.length ≠ 0 := by
    rw [ne_eq, List.length_eq_zero_iff]
    exact (digitRun_eq_length_iff.mpr ⟨ds, h⟩).1
  rw [markedLength_cons, markedRadix_eq_some_iff.mpr hm, Option.bind_some, hleading,
    List.drop_left, digitRun_of_separated h, if_neg hne, List.length_cons, List.length_cons,
    List.length_append]
  congr 1
  omega

/-- A text with a mark is a whole number if it is read as one. -/
theorem isWholeNumber_of_markedLength (h : markedLength cs = some cs.length) :
    ∃ apart n, IsWholeNumber cs apart n := by
  match cs with
  | [] => cases h
  | [c] =>
    rw [markedLength_singleton] at h
    cases h
  | c :: m :: cs =>
    obtain rfl : c = '0' := by
      by_contra hc
      rw [markedLength_of_ne hc] at h
      cases h
    rw [markedLength_cons] at h
    obtain ⟨radix, hradix, hlength⟩ := Option.bind_eq_some_iff.mp h
    have hm := markedRadix_eq_some_iff.mp hradix
    split at hlength
    · cases hlength
    · next hpos =>
      have hlength := Option.some.inj hlength
      rw [List.length_cons, List.length_cons] at hlength
      -- what the run leaves out is an underscore behind the mark or nothing
      by_cases hline : cs.head? = some '_'
      · obtain ⟨body, rfl⟩ := List.head?_eq_some_iff.mp hline
        have hleading : leadingLine ('_' :: body) = 1 := rfl
        rw [hleading, List.drop_succ_cons, List.drop_zero] at hpos hlength
        rw [List.length_cons] at hlength
        obtain ⟨ds, hds⟩ : ∃ ds, Separated radix body ds := by
          refine digitRun_eq_length_iff.mp ⟨?_, by omega⟩
          rintro rfl
          exact hpos rfl
        exact ⟨true, _, .apart hm hds⟩
      · have hleading : leadingLine cs = 0 := if_neg hline
        rw [hleading, List.drop_zero] at hpos hlength
        obtain ⟨ds, hds⟩ : ∃ ds, Separated radix cs ds := by
          refine digitRun_eq_length_iff.mp ⟨?_, by omega⟩
          rintro rfl
          exact hpos rfl
        exact ⟨false, _, .magnitude (.marked hm hds)⟩

/-- **A text is read as a numeral without point and exponent if and only if it is a whole
number.** -/
theorem numeral_whole_iff :
    (cs ≠ [] ∧ numeral cs = ⟨cs.length, false⟩) ↔ ∃ apart n, IsWholeNumber cs apart n := by
  constructor
  · rintro ⟨hne, h⟩
    rw [numeral] at h
    cases hmarked : markedLength cs with
    | some k =>
      rw [hmarked] at h
      obtain rfl : k = cs.length := congrArg Numeral.length h
      exact isWholeNumber_of_markedLength hmarked
    | none =>
      rw [hmarked, Option.elim, decimalNumeral, Numeral.mk.injEq, decide_eq_false_iff_not] at h
      obtain ⟨ds, hds⟩ := digitRun_eq_length_iff.mp ⟨hne, show digitRun 10 false cs = _ by omega⟩
      exact ⟨false, _, .magnitude (.decimal hds)⟩
  · rintro ⟨apart, n, h⟩
    cases h with
    | magnitude h =>
      cases h with
      | decimal h =>
        have hrun := digitRun_eq_length_iff.mpr ⟨_, h⟩
        refine ⟨hrun.1, ?_⟩
        rw [numeral, markedLength_of_forall (markedRadix_of_separated h)]
        simp only [Option.elim, decimalNumeral, hrun.2, List.drop_length, fractionLength,
          exponentLength, Nat.add_zero]
        rfl
      | marked hm h =>
        refine ⟨List.cons_ne_nil _ _, ?_⟩
        have hlength := markedLength_of_separated hm (.inl rfl) h
        rw [List.nil_append] at hlength
        rw [numeral, hlength]
        rfl
    | apart hm h =>
      have hlength := markedLength_of_separated hm (.inr rfl) h
      refine ⟨List.cons_ne_nil _ _, ?_⟩
      rw [List.singleton_append] at hlength
      rw [numeral, hlength]
      rfl

/-! ### Values -/

/-- The value of a magnitude is found if it fits. -/
theorem Int4.parse_magnitude (h : IsMagnitude cs n) :
    parse cs = if n ≤ 2147483647 then .ok n else .error .outOfRange := by
  have hinteger : IsInteger cs n := ⟨[], cs, [], by simp, nofun, nofun, .bare h⟩
  have hrange : inRange n = true ↔ n ≤ 2147483647 := by
    rw [inRange_iff]
    omega
  rw [parse_of_isInteger hinteger]
  simp only [hrange]

/-- An underscore behind the mark of a radix makes a text malformed. -/
theorem Int4.parse_apart (hm : (m, radix) ∈ marks) (h : Separated radix cs ds) :
    parse ('0' :: m :: '_' :: cs) = .error .malformed := by
  have hblank : ∀ c ∈ '0' :: m :: '_' :: cs, isAsciiBlank c = false := by
    have hmark : ∀ p ∈ marks, isAsciiBlank p.1 = false := by decide
    simp only [List.forall_mem_cons]
    exact ⟨rfl, hmark _ hm, rfl, not_blank_of_separated h⟩
  have htrim : trim ([] ++ ('0' :: m :: '_' :: cs) ++ []) = '0' :: m :: '_' :: cs :=
    trim_between nofun nofun hblank (List.cons_ne_nil _ _)
  rw [List.nil_append, List.append_nil] at htrim
  have hsign : splitSign (trim ('0' :: m :: '_' :: cs)) = (false, '0' :: m :: '_' :: cs) := by
    rw [htrim]
    rfl
  rw [parse_eq hsign (splitRadix_marked hm _)]
  rfl

/-- The kind of token that a whole number is. -/
def wholeNumberKind (text : String) (apart : Bool) (n : Nat) : TokenKind :=
  if n ≤ 2147483647 ∧ apart = false then .integer n else .float text

theorem parse_wholeNumber (h : IsWholeNumber cs apart n) :
    (match Int4.parse cs with
      | .ok v => TokenKind.integer v
      | .error _ => .float (String.ofList cs)) = wholeNumberKind (String.ofList cs) apart n := by
  cases h with
  | magnitude h =>
    rw [Int4.parse_magnitude h]
    by_cases hn : n ≤ 2147483647
    · rw [if_pos hn]
      exact (if_pos ⟨hn, rfl⟩).symm
    · rw [if_neg hn]
      exact (if_neg fun hboth => hn hboth.1).symm
  | apart hm h =>
    rw [Int4.parse_apart hm h]
    exact (if_neg fun hboth => absurd hboth.2 nofun).symm

/-- A whole number starts with a decimal digit. -/
theorem head_wholeNumber (h : IsWholeNumber cs apart n) :
    ∃ c cs', cs = c :: cs' ∧ c.isDigit = true := by
  cases h with
  | magnitude h =>
    obtain ⟨c, cs', d, rfl, hc⟩ := Int4.head_isMagnitude h
    exact ⟨c, cs', rfl, isDigit_of_digitValue hc⟩
  | apart => exact ⟨'0', _, rfl, rfl⟩

/-- **Whole numbers are integers if their value fits 32 bits and no underscore follows the mark
of the radix.**  All other whole numbers are kept as text.  Nothing is recorded for either. -/
theorem tokenize_wholeNumber (d : Dialect) {text : String}
    (h : IsWholeNumber text.toList apart n) :
    (TokenStream.ofText d text.toList).tokenize = (wholeNumberKind text apart n).alone text := by
  have hnumeral := (numeral_whole_iff.mpr ⟨apart, n, h⟩).2
  have hkind := parse_wholeNumber h
  obtain ⟨c, cs, hcs, hdigit⟩ := head_wholeNumber h
  have htext : String.ofList (c :: cs) = text := by rw [← hcs, String.ofList_toList]
  rw [hcs, htext] at hkind
  rw [hcs] at hnumeral
  have htoken : IsToken d text.toList (wholeNumberKind text apart n) := by
    rw [hcs]
    refine isToken_numeral ?_ (.inl hdigit) ?_ ?_
    · unfold wholeNumberKind
      split <;> rfl
    · rw [hnumeral]
    · rw [hnumeral, htext]
      exact hkind
  exact htoken.tokenize

/-- The underscore alone decides between the two kinds. -/
example : (TokenStream.ofText .postgres "0x1F".toList).tokenize.1.head?.map Token.kind
      = some (.integer 31) ∧
    (TokenStream.ofText .postgres "0x_1F".toList).tokenize.1.head?.map Token.kind
      = some (.float "0x_1F") := by
  decide +kernel

end SqlSyntax
